/-! Random choices enter through a source of draws, so that a sampler can be read with any choices. -/

namespace QuantileMonitor

/-- A source that answers with an index below a bound, and with itself afterwards. -/
class Draws (γ : Type) where
  below : Nat → γ → Nat × γ

instance : Draws (List Nat) where
  below _
    | [] => (0, [])
    | d :: ds => (d, ds)

end QuantileMonitor
