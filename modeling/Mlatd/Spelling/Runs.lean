/-
  Runs that differ in the spelling of their messages (state.rs, on_sync, on_mlat).

  Sync points and groups are kept under the hexadecimal texts of their messages, so a receiver
  with another spelling of what others heard is neither paired nor grouped with them.
  `content_groups_iff` says which runs group by content all the same: those in which every message
  that is taken has the text of the sync point and of the group of its content, when there is one
  (`SpellsAlike`). Runs that are respelled within this condition are the same up to the texts, and
  emit the same.
-/
import Mlatd.Spelling.SameContent

namespace Mlatd

variable {F : Type} [F64 F]

open Finmap

namespace State

/-- A message has the text of the sync point and of the group of its content. -/
def SpellsAlike (env : Env F) (s : State F) : Shard.Event F → Prop
  | .msg _ _ (.sync r _ _ em om _) => s.reports env r em om = true →
      Alone env.readPair s.syncpoints (em, om) ∧
        (s.mlatAdsb = true → Alone env.hexDecode s.groups em)
  | .msg _ _ (.mlat r _ m _) => s.live r = true → s.takesFrame env m = true →
      Alone env.hexDecode s.groups m
  | _ => True

instance (env : Env F) (s : State F) (e : Shard.Event F) : Decidable (s.SpellsAlike env e) :=
  match e with
  | .sweep _ _ _ _ => isTrue trivial
  | .msg _ _ (.sync r _ _ em om _) => inferInstanceAs (Decidable (s.reports env r em om = true →
      Alone env.readPair s.syncpoints (em, om) ∧
        (s.mlatAdsb = true → Alone env.hexDecode s.groups em)))
  | .msg _ _ (.mlat r _ m _) => inferInstanceAs (Decidable (s.live r = true →
      s.takesFrame env m = true → Alone env.hexDecode s.groups m))
  | .msg _ _ (.addReceiver _) | .msg _ _ (.removeReceiver _) | .msg _ _ (.clockReset _)
  | .msg _ _ (.receiverStats _) | .msg _ _ .stats | .msg _ _ .syncJson
  | .msg _ _ .stateJson => isTrue trivial

/-! ## The texts a message adds -/

section
variable {env : Env F} {s : State F}

theorem mem_trainSync (s : State F) (now : Instant) (rx : ℕ) (icao : Icao)
    (key : String × String) (te to' : F) (k : String × String) :
    k ∈ (s.trainSync now rx icao key te to').syncpoints ↔ k = key ∨ k ∈ s.syncpoints := by
  simp only [trainSync]
  split
  · exact mem_insert
  · rw [(foldl_trainPair_sameRest icao rx te to' _ _).syncpoints]
    exact mem_insert

theorem mem_onMlat {r : RxRef} {m : String} (hl : s.live r = true)
    (ht : s.takesFrame env m = true) (now : Instant) (t at' : F) (k : String) :
    k ∈ (s.onMlat env now r t m at').groups ↔ k = m ∨ k ∈ s.groups := by
  obtain ⟨raw, icao, alt, hraw, hf⟩ := takesFrame_cases ht
  rw [onMlat_of_taken hl hraw hf]
  cases alt with
  | none => exact mem_upsert
  | some a => exact mem_upsert

theorem mem_onSync {r : RxRef} {em om : String} (h : s.reports env r em om = true)
    (now : Instant) (et ot at' : F) :
    (∀ k, k ∈ (s.onSync env now r et ot em om at').syncpoints ↔
        k = (em, om) ∨ k ∈ s.syncpoints) ∧
      (s.mlatAdsb = true → ∀ k, k ∈ (s.onSync env now r et ot em om at').groups ↔
        k = em ∨ k ∈ s.groups) := by
  unfold reports at h
  rw [Bool.and_eq_true, Option.any_eq_true] at h
  obtain ⟨hl, ⟨de, do'⟩, hd, hp⟩ := h
  obtain ⟨⟨pe, po⟩, hp⟩ := Option.isSome_iff_exists.1 hp
  have hl' : ((s.noteSync r.idx de.icao at').notePosition de pe at').live r = true := hl
  have ht (ha : s.mlatAdsb = true) :
      ((s.noteSync r.idx de.icao at').notePosition de pe at').takesFrame env em = true :=
    takesFrame_of_decodeSync hd ha
  unfold onSync
  rw [hl, hd]
  simp only [Bool.not_true, Bool.false_eq_true, if_false, hp]
  constructor
  · intro k
    rw [mem_trainSync]
    split
    · rw [onMlat_syncpoints]
      rfl
    · rfl
  · intro ha k
    have ha' : ((s.noteSync r.idx de.icao at').notePosition de pe at').mlatAdsb = true := ha
    rw [trainSync_groups, if_pos ha', mem_onMlat hl' (ht ha)]
    rfl

end

end State

namespace Shard

open State

/-- The same event, its messages in other texts of the same bytes. A sweep walks the groups in an
    order of their contents, and so reads the clock. -/
inductive Respells (env : Env F) : Event F → Event F → Prop
  | sync {now : Instant} {heard : ℕ → F} {r : RxRef} {et ot at' : F} {em em' om om' : String} :
      env.hexDecode em' = env.hexDecode em → env.hexDecode om' = env.hexDecode om →
      Respells env (.msg now heard (.sync r et ot em om at'))
        (.msg now heard (.sync r et ot em' om' at'))
  | mlat {now : Instant} {heard : ℕ → F} {r : RxRef} {t at' : F} {m m' : String} :
      env.hexDecode m' = env.hexDecode m →
      Respells env (.msg now heard (.mlat r t m at')) (.msg now heard (.mlat r t m' at'))
  | same (now : Instant) (heard : ℕ → F) (m : ShardMsg F) :
      Respells env (.msg now heard m) (.msg now heard m)
  | sweep {now : Instant} {window : ℕ} {rank : String → ℕ} {clk : String → ℕ → Instant} :
      (∀ m m', rank m' = rank m ↔ env.hexDecode m' = env.hexDecode m) →
      (∀ m m', env.hexDecode m' = env.hexDecode m → clk m' = clk m) →
      Respells env (.sweep now window rank clk) (.sweep now window rank clk)

/-- What a run emits. -/
def emitted (env : Env F) : State F → List (Event F) → List (OutMsg F)
  | _, [] => []
  | s, e :: es => emits env s e ++ emitted env (step env s e) es

section
variable {env : Env F} {s s' : State F} {e e' : Event F}

/-- A message that is taken is spelled alike if no content has two texts after it. -/
theorem spellsAlike_of_step (hs : OneSpelling env.readPair (step env s e).syncpoints)
    (hg : OneSpelling env.hexDecode (step env s e).groups) : s.SpellsAlike env e := by
  cases e with
  | sweep => trivial
  | msg now heard m =>
    cases m with
    | sync r et ot em om at' =>
      intro hr
      obtain ⟨h1, h2⟩ := mem_onSync hr now et ot at'
      exact ⟨hs.alone_of_mem ((h1 _).2 (Or.inl rfl)) fun j hj => (h1 j).2 (Or.inr hj),
        fun ha => hg.alone_of_mem ((h2 ha _).2 (Or.inl rfl)) fun j hj => (h2 ha j).2 (Or.inr hj)⟩
    | mlat r t m at' =>
      intro hl ht
      have h1 := mem_onMlat hl ht now t at'
      exact hg.alone_of_mem ((h1 _).2 (Or.inl rfl)) fun j hj => (h1 j).2 (Or.inr hj)
    | _ => trivial

theorem sameContent_handle (h : SameContent env s s') (now : Instant) (heard : ℕ → F)
    (m : ShardMsg F) (hc : s.SpellsAlike env (.msg now heard m))
    (hc' : s'.SpellsAlike env (.msg now heard m)) :
    SameContent env (handle env s now heard m).1 (handle env s' now heard m).1 := by
  cases m with
  | addReceiver info => exact h.addReceiver now heard info
  | removeReceiver r => exact h.removeReceiver r
  | sync r et ot em om at' => exact h.onSync now r et ot at' rfl rfl hc hc'
  | mlat r t m at' => exact h.onMlat now r t at' rfl hc hc'
  | clockReset r => exact h.clockReset r
  | receiverStats r =>
    exact h.blind (f := fun s => (s.receiverStats r).1) fun s sps gs =>
      receiverStats_rekeyed s sps gs r
  | stats => exact h
  | syncJson => exact h
  | stateJson => exact h.blind (f := fun s => (s.stateJson now).1) fun _ _ _ => rfl

/-- A respelled event keeps the states the same, and emits the same, where both spell alike. -/
theorem sameContent_step (h : SameContent env s s') (he : Respells env e e')
    (hc : s.SpellsAlike env e) (hc' : s'.SpellsAlike env e') :
    SameContent env (step env s e) (step env s' e') ∧ emits env s' e' = emits env s e := by
  cases he with
  | sync hem hom => exact ⟨h.onSync _ _ _ _ _ hem hom hc hc', rfl⟩
  | mlat hm => exact ⟨h.onMlat _ _ _ _ hm hc hc', rfl⟩
  | same now heard m => exact ⟨sameContent_handle h now heard m hc hc', rfl⟩
  | sweep hrank hclk => exact h.sweep _ _ hrank hclk

theorem sameContent_step_iff (h : SameContent env s s') (he : Respells env e e') :
    SameContent env (step env s e) (step env s' e') ↔
      s.SpellsAlike env e ∧ s'.SpellsAlike env e' := by
  constructor
  · intro h1
    exact ⟨spellsAlike_of_step h1.syncpoints.left h1.groups.left,
      spellsAlike_of_step h1.syncpoints.right h1.groups.right⟩
  · intro hc
    exact (sameContent_step h he hc.1 hc.2).1

theorem emitted_respelled (h : SameContent env s s') {es es' : List (Event F)}
    (he : List.Forall₂ (Respells env) es es')
    (hc : Run.Steps (step env) (fun s e => s.SpellsAlike env e) s es)
    (hc' : Run.Steps (step env) (fun s e => s.SpellsAlike env e) s' es') :
    emitted env s' es' = emitted env s es := by
  induction he generalizing s s' with
  | nil => rfl
  | cons he hes ih =>
    obtain ⟨h1, hout⟩ := sameContent_step h he hc.1 hc'.1
    rw [emitted, emitted, hout, ih h1 hc.2 hc'.2]

end

omit [F64 F] in
theorem boot_sameContent (env : Env F) (c : Config F) : SameContent env (boot c) (boot c) where
  rest := rfl
  syncpoints := Spelt.refl fun _ hj => absurd hj notMem_empty
  groups := Spelt.refl fun _ hj => absurd hj notMem_empty

/-- **Which runs group by content**: two runs, one respelling the messages of the other, hold the
    same sync points, groups, pairs and tracks throughout, each content once, and emit the same,
    exactly when in both every message that is taken has the text of the sync point and of the
    group of its content, when there is one. -/
theorem content_groups_iff (env : Env F) (c : Config F) {es es' : List (Event F)}
    (h : List.Forall₂ (Respells env) es es') :
    ((∀ n, SameContent env (run env (boot c) (es.take n)) (run env (boot c) (es'.take n))) ∧
        emitted env (boot c) es' = emitted env (boot c) es) ↔
      Run.Steps (step env) (fun s e => s.SpellsAlike env e) (boot c) es ∧
        Run.Steps (step env) (fun s e => s.SpellsAlike env e) (boot c) es' := by
  have hiff := @Run.forall_take_related_iff _ _ (step env) (SameContent env) (Respells env)
    (fun s e => s.SpellsAlike env e) (fun _ _ _ _ => sameContent_step_iff) _ _ es es'
    (boot_sameContent env c) h
  constructor
  · intro h1
    exact hiff.1 h1.1
  · intro hc
    exact ⟨hiff.2 hc, emitted_respelled (boot_sameContent env c) h hc.1 hc.2⟩

end Shard

/-! ## Two receivers hear one pair -/

namespace Sample

/-- Slot 0 reports a pair with the even frame in the text `zero`, slot 1 in the text `one`. -/
def hearOne (zero one : String) : List (Shard.Event ℚ) :=
  [arrives 1 "Zero" none, arrives 1 "One" none, hearsAt 0 1 zero, hearsAt 1 2 one]

def shouted : String := "8D40621D58C382D690C8AC2863A7"

theorem hearOne_respells {zero one zero' one' : String}
    (h0 : Hex.decode zero' = Hex.decode zero) (h1 : Hex.decode one' = Hex.decode one) :
    List.Forall₂ (Shard.Respells env) (hearOne zero one) (hearOne zero' one') :=
  .cons (.same _ _ _) (.cons (.same _ _ _) (.cons (.sync h0 rfl) (.cons (.sync h1 rfl) .nil)))

end Sample

open Sample in
/-- Both receivers in lower case, both in upper case. -/
theorem Shard.content_groups_shouted :
    (∀ n, State.SameContent env (run env (boot config) ((hearOne evenFrame evenFrame).take n))
        (run env (boot config) ((hearOne shouted shouted).take n))) ∧
      emitted env (boot config) (hearOne shouted shouted) =
        emitted env (boot config) (hearOne evenFrame evenFrame) := by
  have h : Hex.decode shouted = Hex.decode evenFrame := by decide +kernel
  refine (content_groups_iff env config (hearOne_respells h h)).2 ⟨?_, ?_⟩
  · exact ⟨trivial, trivial, by decide +kernel, by decide +kernel, trivial⟩
  · exact ⟨trivial, trivial, by decide +kernel, by decide +kernel, trivial⟩

open Sample in
/-- The second receiver in upper case: the pair that both heard trains nobody. -/
theorem Shard.spelling_splits :
    List.Forall₂ (Respells env) (hearOne evenFrame evenFrame) (hearOne evenFrame shouted) ∧
      ((run env (boot config) (hearOne evenFrame evenFrame)).pairs.lookup (1, 0)).map
          PairModel.nTotal = some 2 ∧
      (run env (boot config) (hearOne evenFrame shouted)).pairs.lookup (1, 0) = none := by
  refine ⟨hearOne_respells rfl (by decide +kernel), by decide +kernel, ?_⟩
  have h : ((run env (boot config) (hearOne evenFrame shouted)).pairs.lookup (1, 0)).isNone =
    true := by decide +kernel
  exact Option.isNone_iff_eq_none.1 h

end Mlatd
