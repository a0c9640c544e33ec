/-
  A shard's run cut into turns that read the clock at most once.

  A sweep expires, then takes the ready groups out one by one and solves their clusters, each at a
  clock reading of its own. `turnsOf` lists these turns; taken one after the other they are the
  sweep (`exec_turnsOf`, `outs_turnsOf`), so what every turn keeps, every run of the shard keeps.
-/
import Mlatd.Shard

namespace Mlatd

variable {F : Type} [F64 F]

inductive Turn (F : Type) where
  | msg (now : Instant) (heard : ℕ → F) (m : ShardMsg F)
  /-- the start of a sweep: sync points, and aircraft when it is time -/
  | expire (now : Instant)
  /-- a ready group taken out -/
  | take (key : String)
  | solve (now : Instant) (g : Group F) (localRef : ℕ) (cluster : List (Arrival F))

namespace Turn

/-- The clock reading of a turn. -/
def clock : Turn F → Option Instant
  | .msg now _ _ | .expire now | .solve now _ _ _ => some now
  | .take _ => none

/-- What a turn does to the state. -/
def step (env : Env F) (s : State F) : Turn F → State F
  | .msg now heard m => (Shard.handle env s now heard m).1
  | .expire now => (s.expireSyncpoints now).expireIfDue now
  | .take key => s.takeGroup key
  | .solve now g localRef cluster => (s.solveCluster env now g localRef cluster).1

/-- What a turn emits. -/
def out (env : Env F) (s : State F) : Turn F → List (OutMsg F)
  | .solve now g localRef cluster => (s.solveCluster env now g localRef cluster).2
  | _ => []

/-- What a run of turns emits. -/
def outs (env : Env F) : State F → List (Turn F) → List (OutMsg F)
  | _, [] => []
  | s, t :: ts => out env s t ++ outs env (step env s t) ts

theorem outs_append (env : Env F) (s : State F) (ts us : List (Turn F)) :
    outs env s (ts ++ us) = outs env s ts ++ outs env (Run.exec (step env) s ts) us := by
  induction ts generalizing s with
  | nil => rfl
  | cons t ts ih => rw [List.cons_append, outs, outs, ih, List.append_assoc, Run.exec_cons]

end Turn

namespace Shard

/-! ## The turns of an event -/

/-- The clusters from number `k` on. -/
def clusterTurns (clk : ℕ → Instant) (g : Group F) (localRef : ℕ) :
    ℕ → List (List (Arrival F)) → List (Turn F)
  | _, [] => []
  | k, c :: cs => .solve (clk k) g localRef c :: clusterTurns clk g localRef (k + 1) cs

/-- The clusters of a group whose window has closed. -/
def groupTurns (s : State F) (clk : ℕ → Instant) (g : Group F) : List (Turn F) :=
  if g.members.length < 4 ∨ (s.conv g).length < 4 then []
  else
    clusterTurns clk g (s.electRef g.members) 0
      (clusters (s.conv g).length (sortArrivals (s.conv g)))

/-- One group taken out and solved. -/
def readyTurns (s : State F) (clk : String → ℕ → Instant) (key : String) : List (Turn F) :=
  match s.groups.lookup key with
  | none => []
  | some g => .take key :: groupTurns (s.takeGroup key) (clk key) g

def allReadyTurns (env : Env F) (clk : String → ℕ → Instant) :
    State F → List String → List (Turn F)
  | _, [] => []
  | s, key :: keys =>
    readyTurns s clk key ++ allReadyTurns env clk (s.solveReady env clk key).1 keys

def turnsOf (env : Env F) (s : State F) : Event F → List (Turn F)
  | .msg now heard m => [.msg now heard m]
  | .sweep now window rank clk =>
    let s := (s.expireSyncpoints now).expireIfDue now
    .expire now :: allReadyTurns env clk s (s.readyGroups now window rank)

/-- The turns of a run. -/
def turns (env : Env F) : State F → List (Event F) → List (Turn F)
  | _, [] => []
  | s, e :: es => turnsOf env s e ++ turns env (step env s e) es

/-- What an event emits. -/
def emits (env : Env F) (s : State F) : Event F → List (OutMsg F)
  | .msg _ _ _ => []
  | .sweep now window rank clk => (s.sweep env now window rank clk).2

/-! ## The turns are the event -/

theorem clusterTurns_spec (env : Env F) (clk : ℕ → Instant) (g : Group F) (localRef : ℕ)
    (s : State F) (k : ℕ) (cs : List (List (Arrival F))) :
    (Run.exec (Turn.step env) s (clusterTurns clk g localRef k cs),
      Turn.outs env s (clusterTurns clk g localRef k cs)) =
      s.solveClusters env clk g localRef k cs := by
  induction cs generalizing s k with
  | nil => rfl
  | cons c cs ih =>
    have h := ih (s.solveCluster env (clk k) g localRef c).1 (k + 1)
    rw [clusterTurns, Run.exec_cons, Turn.outs]
    unfold State.solveClusters
    simp only
    rw [← h]
    rfl

theorem groupTurns_spec (env : Env F) (clk : ℕ → Instant) (g : Group F) (s : State F) :
    (Run.exec (Turn.step env) s (groupTurns s clk g), Turn.outs env s (groupTurns s clk g)) =
      s.solveGroup env clk g := by
  unfold groupTurns State.solveGroup
  simp only
  by_cases h1 : g.members.length < 4
  · rw [if_pos (Or.inl h1), if_pos h1]
    rfl
  · by_cases h2 : (s.conv g).length < 4
    · rw [if_pos (Or.inr h2), if_neg h1, if_pos h2]
      rfl
    · rw [if_neg (not_or.2 ⟨h1, h2⟩), if_neg h1, if_neg h2]
      exact clusterTurns_spec env clk g _ s 0 _

theorem readyTurns_spec (env : Env F) (clk : String → ℕ → Instant) (key : String) (s : State F) :
    (Run.exec (Turn.step env) s (readyTurns s clk key),
      Turn.outs env s (readyTurns s clk key)) = s.solveReady env clk key := by
  unfold readyTurns State.solveReady
  cases s.groups.lookup key with
  | none => rfl
  | some g => exact groupTurns_spec env (clk key) g (s.takeGroup key)

theorem allReadyTurns_spec (env : Env F) (clk : String → ℕ → Instant) (keys : List String)
    (s : State F) :
    (Run.exec (Turn.step env) s (allReadyTurns env clk s keys),
      Turn.outs env s (allReadyTurns env clk s keys)) = s.solveAllReady env clk keys := by
  induction keys generalizing s with
  | nil => rfl
  | cons key keys ih =>
    have h1 := Prod.ext_iff.1 (readyTurns_spec env clk key s)
    have h2 := Prod.ext_iff.1 (ih (s.solveReady env clk key).1)
    simp only at h1 h2
    rw [allReadyTurns, Run.exec_append, Turn.outs_append, h1.1, h1.2, h2.1, h2.2]
    rfl

/-- An event is its turns. -/
theorem turnsOf_spec (env : Env F) (s : State F) (e : Event F) :
    (Run.exec (Turn.step env) s (turnsOf env s e), Turn.outs env s (turnsOf env s e)) =
      (step env s e, emits env s e) := by
  cases e with
  | msg now heard m => rfl
  | sweep now window rank clk =>
    exact allReadyTurns_spec env clk _ ((s.expireSyncpoints now).expireIfDue now)

/-- A run is the run of its turns. -/
theorem exec_turns (env : Env F) (s : State F) (es : List (Event F)) :
    Run.exec (Turn.step env) s (turns env s es) = run env s es := by
  induction es generalizing s with
  | nil => rfl
  | cons e es ih =>
    have h := (Prod.ext_iff.1 (turnsOf_spec env s e)).1
    simp only at h
    rw [turns, Run.exec_append, h, ih]
    rfl

end Shard

end Mlatd
