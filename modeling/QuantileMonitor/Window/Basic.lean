import QuantileMonitor.Quantile.Estimator
import QuantileMonitor.Window.Exact
import QuantileMonitor.Window.Top

/-! A window of statistics: an estimator with its exact companions. -/

namespace QuantileMonitor

open Quantile

structure Window (γ : Type) where
  exact : Window.Exact
  top : Window.Top
  estimator : Estimator γ

namespace Window

variable {γ : Type}

def empty (strategy : Strategy) (draws : γ) : Window γ := ⟨.empty, .empty, strategy.build draws⟩

def record [Draws γ] (w : Window γ) (v : Nat) : Window γ :=
  ⟨w.exact.record v, w.top.record v, w.estimator.insert v⟩

def reset (w : Window γ) : Window γ := ⟨.empty, w.top.clear, w.estimator.reset⟩

def snapshot (w : Window γ) : Window γ := ⟨w.exact, w.top, w.estimator.snapshot⟩

def quantile (w : Window γ) (q : Float) : Option Float := w.estimator.quantile q

end Window

structure EntityStats (γ : Type) where
  interval : Window γ
  lifetime : Window γ

namespace EntityStats

variable {γ : Type}

def empty (strategy : Strategy) (draws : γ × γ) : EntityStats γ :=
  ⟨.empty strategy draws.1, .empty strategy draws.2⟩

def record [Draws γ] (s : EntityStats γ) (v : Nat) : EntityStats γ :=
  ⟨s.interval.record v, s.lifetime.record v⟩

def resetInterval (s : EntityStats γ) : EntityStats γ := { s with interval := s.interval.reset }

def trueMax (s : EntityStats γ) : Nat := s.lifetime.exact.max

def totalCount (s : EntityStats γ) : Nat := s.lifetime.exact.count

def intervalPeak (s : EntityStats γ) : Nat := s.interval.exact.max

def snapshot (s : EntityStats γ) : EntityStats γ := ⟨s.interval.snapshot, s.lifetime.snapshot⟩

end EntityStats

end QuantileMonitor
