import QuantileMonitor.Ingest.Filter

/-!
# What a filter lets through

A list of wanted keys lets exactly its members through, unless it is empty: then everything passes, but
for devices that are not in the tracked set, if there is one.
-/

namespace QuantileMonitor.Ingest.Filter

theorem allows_ofKeys (keys : List EntityKey) (key : EntityKey) :
    (ofKeys keys).allows key = true ↔ keys = [] ∨ key ∈ keys := by
  cases keys with
  | nil => simp [ofKeys, allows]
  | cons first keys => simp [ofKeys, allows]

theorem allows_withTracked (devices : List DeviceId) (id : DeviceId) :
    ((ofKeys []).withTracked devices).allows (.device id) = true ↔ id ∈ devices := by
  simp [ofKeys, withTracked, allows]

end QuantileMonitor.Ingest.Filter
