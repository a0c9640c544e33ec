/-
  Pairwise clock synchronisation (clocksync.rs): exponentially weighted, centred sufficient
  statistics of one ordered receiver pair, with an online outlier gate.
-/
import Mlatd.Lib.F64

namespace Mlatd

variable {F : Type} [F64 F]

/-- Forgetting factor per accepted observation. -/
def lambda : F := 0.9967
/-- Effective observations before usable. -/
def minWeight : F := 8.0
/-- Effective spread of the from-clock before usable, s. -/
def minSpanS : F := 5.0
/-- Floor of the outlier gate, s. -/
def gateFloorS : F := 1e-6
/-- Consecutive rejections treated as a clock jump. -/
def resetAfterRejects : ℕ := 8
/-- Conversions with a larger prediction sigma are refused, s. -/
def maxPredSigmaS : F := 2e-6

/-- The regression of a to-clock on a from-clock. -/
structure PairModel (F : Type) where
  /-- total (decayed) weight -/
  w : F
  /-- weighted means of the from- and the to-clock -/
  ma : F
  mb : F
  /-- weighted central sums -/
  caa : F
  cab : F
  /-- mean squared fit residual -/
  msq : F
  rejects : ℕ
  nTotal : ℕ

namespace PairModel

def default : PairModel F :=
  { w := 0.0, ma := 0.0, mb := 0.0, caa := 0.0, cab := 0.0, msq := 0.0, rejects := 0, nTotal := 0 }

instance : Inhabited (PairModel F) := ⟨default⟩

/-- The fitted slope. -/
def beta (m : PairModel F) : F := if 0.0 < m.caa then m.cab / m.caa else 1.0

/-- Predicted to-clock reading and its sigma. -/
def predictUnchecked (m : PairModel F) (tFrom : F) : F × F :=
  let pred := m.mb + m.beta * (tFrom - m.ma)
  let da := tFrom - m.ma
  let infl := F64.sqrt (1.0 + 1.0 / m.w + da * da / F64.max m.caa 1e-12)
  (pred, F64.sqrt m.msq * infl)

/-- Enough weight over enough span. -/
def usable (m : PairModel F) : Bool :=
  decide (minWeight ≤ m.w) && decide (F64.sq (minSpanS / 4.0) ≤ m.caa / F64.max m.w 1.0)

/-- Welford-with-decay update by one accepted observation. -/
def ingest (m : PairModel F) (tFrom tTo : F) : PairModel F :=
  let w := m.w * lambda + 1.0
  let da := tFrom - m.ma
  let db := tTo - m.mb
  let k := 1.0 / w
  let ma := m.ma + k * da
  let mb := m.mb + k * db
  { m with
    w := w
    ma := ma
    mb := mb
    caa := m.caa * lambda + da * (tFrom - ma)
    cab := m.cab * lambda + da * (tTo - mb)
    nTotal := m.nTotal + 1 }

/-- The residual of an observation against the model. -/
def residual (m : PairModel F) (tFrom tTo : F) : F := tTo - (m.predictUnchecked tFrom).1

/-- The width of the outlier gate. -/
def gate (m : PairModel F) : F := F64.max (4.0 * F64.sqrt m.msq) gateFloorS

/-- One observation; `false` when the outlier gate refused it. -/
def push (m : PairModel F) (tFrom tTo : F) : PairModel F × Bool :=
  if m.usable then
    let r := m.residual tFrom tTo
    if m.gate < F64.abs r then
      let rejects := m.rejects + 1
      (if resetAfterRejects ≤ rejects then default else { m with rejects := rejects }, false)
    else
      (ingest { m with rejects := 0, msq := m.msq + (1.0 - lambda) * (r * r - m.msq) } tFrom tTo,
        true)
  else (m.ingest tFrom tTo, true)

/-- A from-clock reading in the to-clock, with its prediction sigma. -/
def convert (m : PairModel F) (tFrom : F) : Option (F × F) :=
  if ¬ m.usable then none
  else
    let (pred, sigma) := m.predictUnchecked tFrom
    if maxPredSigmaS < sigma then none else some (pred, sigma)

/-- Observation count and offset in ppm, for the status export. -/
def status (m : PairModel F) : ℕ × F := (m.nTotal, (m.beta - 1.0) * 1e6)

end PairModel

end Mlatd
