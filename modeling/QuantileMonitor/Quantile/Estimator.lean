import QuantileMonitor.Quantile.Histogram
import QuantileMonitor.Quantile.LogSketch
import QuantileMonitor.Quantile.Reservoir
import QuantileMonitor.Quantile.Strategy

/-! The three estimators behind one set of operations. -/

namespace QuantileMonitor.Quantile

inductive Estimator (γ : Type)
  | histogram (h : Histogram)
  | reservoir (r : Reservoir γ)
  | sketch (s : LogSketch)

def Strategy.build {γ : Type} (draws : γ) : Strategy → Estimator γ
  | histogram maxValue => .histogram (.empty maxValue)
  | reservoir capacity => .reservoir (.empty capacity draws)
  | sketch accuracy => .sketch (.empty accuracy)

namespace Estimator

variable {γ : Type}

def insert [Draws γ] (e : Estimator γ) (v : Nat) : Estimator γ :=
  match e with
  | histogram h => histogram (h.insert v)
  | reservoir r => reservoir (r.insert v)
  | sketch s => sketch (s.insert v)

def quantile (e : Estimator γ) (q : Float) : Option Float :=
  match e with
  | histogram h => h.quantile q
  | reservoir r => r.quantile q
  | sketch s => s.quantile q

def count : Estimator γ → Nat
  | histogram h => h.count
  | reservoir r => r.seen
  | sketch s => s.count

def reset : Estimator γ → Estimator γ
  | histogram h => histogram h.reset
  | reservoir r => reservoir r.reset
  | sketch s => sketch s.reset

def snapshot : Estimator γ → Estimator γ
  | histogram h => histogram h
  | reservoir r => reservoir r.snapshot
  | sketch s => sketch s.copy

def memory : Estimator γ → Nat
  | histogram h => h.memory
  | reservoir r => r.memory
  | sketch s => s.memory

end Estimator

end QuantileMonitor.Quantile
