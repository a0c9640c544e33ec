/-
  Result return (main.rs, the output task, the broadcast of fixes and the forwarder of a
  connection): what a feeder that asked for results hears of the rows published.

  The output task publishes rows to a broadcast channel; the forwarder of a connection takes them
  in turn, drops those that are not for its uid, and sends the others to its writer's channel,
  where it waits for room. When it has fallen more than `maxKept` rows behind it is told so and
  goes on with the oldest row kept. A stopped forwarder takes and sends nothing more.

  `results_forwarded`: whatever the order of these steps, the lines sent are the result lines of
  the rows for this uid that the forwarder took, in the order of publication and each row at most
  once; and all of them up to its place, in exactly the runs in which it never falls behind.
-/
import Mlatd.Lib.Broadcast
import Mlatd.Output

namespace Mlatd

open Broadcast

variable {F : Type} [F64 F]

/-- The most rows the broadcast channel keeps. -/
def maxKept : ℕ := 1024

/-- The output task and the forwarder of one connection. -/
structure Forwarder (F : Type) where
  task : OutTask F
  sub : Receiver Published
  /-- The line that waits for room in the writer's channel. -/
  sending : Option String
  forwarded : List String
  stopped : Bool

namespace Forwarder

/-- The rows broadcast so far. -/
def log (f : Forwarder F) : List Published := f.task.published.map OutRow.published

/-- A connection subscribes to a running task. -/
def subscribe (task : OutTask F) : Forwarder F where
  task := task
  sub := Broadcast.subscribe (task.published.map OutRow.published)
  sending := none
  forwarded := []
  stopped := false

inductive Event (F : Type) where
  /-- The output task handles a message of a shard. -/
  | row (r : Router F) (m : OutMsg F)
  | recv
  /-- The writer's channel has room for the line. -/
  | sent
  /-- Aborted at teardown, or the writer's channel is gone. -/
  | stop

def step (files : OutFiles) (uid : ℕ) (f : Forwarder F) : Event F → Forwarder F
  | .row r m => { f with task := OutTask.step files f.task (r, m) }
  | .recv =>
    if f.stopped ∨ f.sending.isSome then f
    else
      let p := f.sub.recv maxKept f.log
      { f with sub := p.1, sending := (p.2.filter (Published.isFor · uid)).map Published.resultLine }
  | .sent =>
    if f.stopped then f
    else { f with sending := none, forwarded := f.forwarded ++ f.sending.toList }
  | .stop => { f with stopped := true }

/-- A receive finds the forwarder less than the channel's length behind. -/
def KeepsUp (f : Forwarder F) : Event F → Prop
  | .recv => f.stopped = false → f.sending = none → ¬ f.sub.Lags maxKept f.log
  | _ => True

/-- The result lines of rows for `uid`. -/
def resultsFor (uid : ℕ) (ps : List Published) : List String :=
  (ps.filter (Published.isFor · uid)).map Published.resultLine

/-! ## The invariant -/

/-- The forwarder's place is sound, and it has sent, up to the line that waits, what it took. -/
structure Inv (uid first : ℕ) (f : Forwarder F) : Prop where
  first_eq : f.sub.first = first
  sound : f.sub.Sound f.log
  lines : f.forwarded ++ f.sending.toList = resultsFor uid f.sub.taken

omit [F64 F] in
theorem subscribe_inv (uid : ℕ) (task : OutTask F) :
    Inv uid task.published.length (subscribe task) :=
  ⟨List.length_map _, Receiver.subscribe_sound _, rfl⟩

variable {files : OutFiles} {uid first : ℕ} {f : Forwarder F}

/-- A message handled adds to the log. -/
theorem row_log (files : OutFiles) (uid : ℕ) (f : Forwarder F) (r : Router F) (m : OutMsg F) :
    ∃ more, (step files uid f (.row r m)).log = f.log ++ more :=
  ⟨_, OutTask.step_written f.task (r, m)⟩

theorem step_inv (h : Inv uid first f) (e : Event F) : Inv uid first (step files uid f e) := by
  cases e with
  | row r m =>
    obtain ⟨more, hlog⟩ := row_log files uid f r m
    refine ⟨h.first_eq, ?_, h.lines⟩
    rw [hlog]
    exact h.sound.append more
  | recv =>
    unfold step
    simp only
    split
    · exact h
    · next hfree =>
      rw [not_or, Option.not_isSome_iff_eq_none] at hfree
      refine ⟨(Receiver.recv_first _ _ _).trans h.first_eq, Receiver.recv_sound h.sound maxKept, ?_⟩
      have hlines := h.lines
      rw [hfree.2, Option.toList_none, List.append_nil] at hlines
      rcases Receiver.recv_cases maxKept f.log f.sub with ⟨-, he⟩ | ⟨-, -, he⟩ | ⟨-, p, -, he⟩
      · rw [he]
        simpa using hlines
      · rw [he]
        simpa using hlines
      · rw [he, hlines]
        unfold resultsFor
        rw [List.filter_append, List.map_append]
        cases hp : p.isFor uid <;> simp [hp]
  | sent =>
    unfold step
    simp only
    split
    · exact h
    · refine ⟨h.first_eq, h.sound, ?_⟩
      simp only
      rw [Option.toList_none, List.append_nil]
      exact h.lines
  | stop => exact ⟨h.first_eq, h.sound, h.lines⟩

theorem step_exact_iff (h : Inv uid first f) (he : f.sub.Exact f.log) (e : Event F) :
    (step files uid f e).sub.Exact (step files uid f e).log ↔ KeepsUp f e := by
  cases e with
  | row r m =>
    obtain ⟨more, hlog⟩ := row_log files uid f r m
    refine iff_of_true ?_ trivial
    show f.sub.taken = _
    rw [hlog]
    exact he.trans (Receiver.sent_append h.sound more).symm
  | recv =>
    unfold step KeepsUp
    simp only
    split
    · next hbusy =>
      refine iff_of_true he fun hstop hfree => absurd hbusy ?_
      rw [hstop, hfree]
      simp
    · next hfree =>
      rw [not_or, Option.not_isSome_iff_eq_none, Bool.not_eq_true] at hfree
      rw [imp_iff_right hfree.1, imp_iff_right hfree.2]
      exact Receiver.recv_exact_iff h.sound he maxKept
  | sent =>
    unfold step
    simp only
    split <;> exact iff_of_true he trivial
  | stop => exact iff_of_true he trivial

/-- **Results reach the feeder once, in order.** In every state of every run the lines sent, with
    the one that waits, are the results for the uid among the rows taken, and these were taken in
    order from what was published since the subscription. Every row up to the forwarder's place is
    taken, in all states of a run, exactly when no receive finds it more than the channel's length
    behind. -/
theorem results_forwarded (files : OutFiles) (uid : ℕ) (task : OutTask F) (es : List (Event F)) :
    (∀ n, (Run.exec (step files uid) (subscribe task) (es.take n)).forwarded ++
          (Run.exec (step files uid) (subscribe task) (es.take n)).sending.toList =
        resultsFor uid (Run.exec (step files uid) (subscribe task) (es.take n)).sub.taken ∧
      (Run.exec (step files uid) (subscribe task) (es.take n)).sub.taken.Sublist
        ((Run.exec (step files uid) (subscribe task) (es.take n)).log.drop
          task.published.length)) ∧
    ((∀ n, (Run.exec (step files uid) (subscribe task) (es.take n)).sub.Exact
        (Run.exec (step files uid) (subscribe task) (es.take n)).log) ↔
      Run.Steps (step files uid) KeepsUp (subscribe task) es) := by
  have hstep (f : Forwarder F) (e : Event F) (h : Inv uid task.published.length f) :
      Inv uid task.published.length (step files uid f e) := step_inv h e
  constructor
  · intro n
    have h := Run.invariant hstep (subscribe_inv uid task) (es.take n)
    refine ⟨h.lines, ?_⟩
    rw [← h.first_eq]
    exact h.sound.sublist.trans (List.take_sublist _ _)
  · exact Run.forall_take_iff_steps (A := fun _ => True) (I := Inv uid task.published.length)
      (P := fun f : Forwarder F => f.sub.Exact f.log) (fun f e _ h _ _ => hstep f e h)
      (fun f e _ h he => step_exact_iff h he e) (subscribe_inv uid task)
      (Receiver.subscribe_exact _) fun _ _ => trivial

end Forwarder

end Mlatd
