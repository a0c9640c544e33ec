/-
  From a group to clusters in one clock (state.rs, solve_group): the members, the reference
  elected among them, the conversion of every arrival into its clock, and the cut into clusters
  of one transmission each.

  `max_by_key` keeps the last of equal maxima: `argmax` of the reversed list.
-/
import Mathlib.Data.List.MinMax
import Mathlib.Data.List.Sort
import Mlatd.State.Messages

namespace Mlatd

variable {F : Type} [F64 F]

/-- The receivers of a group, each once, in the order they first appear. -/
def Group.members (g : Group F) : List ℕ :=
  g.entries.foldl (fun ms e => if ms.contains e.1 then ms else ms ++ [e.1]) []

/-- One arrival in the clock of the reference. -/
structure Arrival (F : Type) where
  rx : ℕ
  t : F
  sigma : F
  atScaled : F

namespace State

/-- The members with a usable direct model to `cand`. -/
def refScore (s : State F) (members : List ℕ) (cand : ℕ) : ℕ :=
  (members.filter fun other =>
    decide (other ≠ cand) && (s.pairs.lookup (other, cand)).any PairModel.usable).length

/-- The member with the most usable direct models to the others. -/
def electRef (s : State F) (members : List ℕ) : ℕ :=
  (members.reverse.argmax (s.refScore members)).getD 0

/-- A reading of clock `a` in clock `b`, by their own model. -/
def convertPair (s : State F) (a b : ℕ) (t : F) : Option (F × F) :=
  (s.pairs.lookup (a, b)).bind fun p => p.convert t

/-- The route over `h`: each end by its own model, sigmas added in quadrature. -/
def route (s : State F) (rx ref : ℕ) (tS : F) (h : ℕ) : Option (F × F) :=
  if h = rx ∨ h = ref then none
  else
    match s.convertPair rx h tS with
    | none => none
    | some (t1, s1) =>
      match s.convertPair h ref t1 with
      | none => none
      | some (t2, s2) => some (t2, F64.sqrt (s1 * s1 + s2 * s2))

/-- The better of the best route so far and `next`. -/
def keepBetter (best next : Option (F × F)) : Option (F × F) :=
  match next, best with
  | none, _ => best
  | some n, none => some n
  | some n, some b => if n.2 < b.2 then some n else some b

/-- The best two-hop route over a member. -/
def twoHop (s : State F) (members : List ℕ) (rx ref : ℕ) (tS : F) : Option (F × F) :=
  members.foldl (fun best h => keepBetter best (s.route rx ref tS h)) none

/-- An arrival in the reference's clock: its own reading, the direct model, or two hops. -/
def toRef (s : State F) (members : List ℕ) (ref rx : ℕ) (tS : F) : Option (F × F) :=
  if rx = ref then some (tS, (s.receiver rx).jitterS)
  else
    match s.convertPair rx ref tS with
    | some direct => some direct
    | none => s.twoHop members rx ref tS

def convEntry (s : State F) (members : List ℕ) (ref : ℕ) (e : ℕ × F × F) : Option (Arrival F) :=
  (s.toRef members ref e.1 e.2.1).map fun c =>
    { rx := e.1, t := c.1, sigma := F64.max c.2 (s.receiver e.1).jitterS, atScaled := e.2.2 }

/-- `conv`: the arrivals of a group that reach the reference's clock. -/
def conv (s : State F) (g : Group F) : List (Arrival F) :=
  g.entries.filterMap (s.convEntry g.members (s.electRef g.members))

end State

/-- The longest span of the arrivals of one transmission, s. -/
def clusterSpanS : F := 2.5e-3

/-- A sorted list of arrivals cut into clusters, each spanning at most `clusterSpanS` from its
    first. One unit of fuel per arrival is enough when a time is within the span of itself; the
    loop in the source does not end on a time that is not (a NaN), and its turns then find
    nothing to solve. -/
def clusters : ℕ → List (Arrival F) → List (List (Arrival F))
  | 0, _ => []
  | _, [] => []
  | n + 1, a :: as =>
    let near (b : Arrival F) : Bool := decide (b.t - a.t ≤ clusterSpanS)
    (a :: as).takeWhile near :: clusters n ((a :: as).dropWhile near)

/-- `conv.sort_by(|a, b| a.1.total_cmp(&b.1))`, which is stable. -/
def sortArrivals (conv : List (Arrival F)) : List (Arrival F) :=
  conv.insertionSort fun a b => F64.totalLe a.t b.t = true

end Mlatd
