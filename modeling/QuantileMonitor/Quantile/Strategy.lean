import QuantileMonitor.Decimal.Shortest

/-! Which estimator summarises a stream, and with what parameter. -/

namespace QuantileMonitor.Quantile

inductive Strategy
  | histogram (maxValue : Nat)
  | reservoir (capacity : Nat)
  | sketch (accuracy : Float)

inductive StrategyError
  | histogramEmpty
  | histogramTooLarge
  | reservoirEmpty
  | accuracyOutside (accuracy : Float)
  | accuracyTooFine (accuracy : Float)

namespace Strategy

def histogramLimit : Nat := 1048576

def finest : Float := 0.0005

def check : Strategy → Except StrategyError Unit
  | histogram maxValue =>
    if maxValue = 0 then throw .histogramEmpty
    else if histogramLimit < maxValue then throw .histogramTooLarge
    else pure ()
  | reservoir capacity => if capacity = 0 then throw .reservoirEmpty else pure ()
  | sketch accuracy =>
    if !(0 < accuracy && accuracy < 1) then throw (.accuracyOutside accuracy)
    else if accuracy < finest then throw (.accuracyTooFine accuracy)
    else pure ()

def warmup : Strategy → Nat
  | reservoir capacity => capacity
  | _ => 0

def describe : Strategy → String
  | histogram maxValue => s!"histogram 0..={maxValue}"
  | reservoir capacity => s!"reservoir {capacity}"
  | sketch accuracy => "DDSketch α=" ++ Decimal.fixed 2 (accuracy * 100) ++ "%"

end Strategy

def StrategyError.message : StrategyError → String
  | histogramEmpty => "histogram max value must be positive"
  | histogramTooLarge => s!"histogram max value must be at most {Strategy.histogramLimit}"
  | reservoirEmpty => "reservoir capacity must be positive"
  | accuracyOutside accuracy =>
    "relative accuracy must be in (0, 1), got " ++ Decimal.shortest accuracy
  | accuracyTooFine accuracy =>
    "relative accuracy must be at least " ++ Decimal.shortest Strategy.finest ++ ", got " ++
      Decimal.shortest accuracy

end QuantileMonitor.Quantile
