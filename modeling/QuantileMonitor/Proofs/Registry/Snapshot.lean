import QuantileMonitor.Proofs.Registry.Slots

/-!
# Snapshots

A snapshot lists the key of every slot once, in strictly ascending order, and answers for a key with
a copy of the statistics in its slot.
-/

namespace QuantileMonitor

namespace EntityKey

def Precedes : EntityKey → EntityKey → Prop
  | device a, device b => a.raw < b.raw
  | device _, _ => True
  | syscall a, syscall b => a < b
  | syscall _, group _ => True
  | group a, group b => a < b
  | _, _ => False

theorem rank_device_lt (d : DeviceId) : (device d).rank < Word.halfBound := d.raw.toNat_lt

theorem rank_syscall_bounds (n : UInt32) :
    Word.halfBound ≤ (syscall n).rank ∧ (syscall n).rank < 2 * Word.halfBound := by
  have hn : n.toNat < Word.halfBound := n.toNat_lt
  simp only [rank]
  omega

theorem le_rank_group (n : UInt16) : 2 * Word.halfBound ≤ (group n).rank := Nat.le_add_right _ _

theorem rank_lt_iff (a b : EntityKey) : a.rank < b.rank ↔ a.Precedes b := by
  cases a with
  | device a =>
    have ha := rank_device_lt a
    cases b with
    | device b => exact UInt32.lt_iff_toNat_lt.symm
    | syscall b =>
      have hb := rank_syscall_bounds b
      exact iff_of_true (by omega) trivial
    | group b =>
      have hb := le_rank_group b
      exact iff_of_true (by omega) trivial
  | syscall a =>
    have ha := rank_syscall_bounds a
    cases b with
    | device b =>
      have hb := rank_device_lt b
      exact iff_of_false (by omega) id
    | syscall b => simp only [rank, Precedes, UInt32.lt_iff_toNat_lt, Nat.add_lt_add_iff_left]
    | group b =>
      have hb := le_rank_group b
      exact iff_of_true (by omega) trivial
  | group a =>
    have ha := le_rank_group a
    cases b with
    | device b =>
      have hb := rank_device_lt b
      exact iff_of_false (by omega) id
    | syscall b =>
      have hb := rank_syscall_bounds b
      exact iff_of_false (by omega) id
    | group b => simp only [rank, Precedes, UInt16.lt_iff_toNat_lt, Nat.add_lt_add_iff_left]

theorem rank_injective {a b : EntityKey} (h : a.rank = b.rank) : a = b := by
  cases a with
  | device a =>
    have ha := rank_device_lt a
    cases b with
    | device b => exact congrArg (fun n => device ⟨n⟩) (UInt32.toNat_inj.mp h)
    | syscall b => have hb := rank_syscall_bounds b; omega
    | group b => have hb := le_rank_group b; omega
  | syscall a =>
    have ha := rank_syscall_bounds a
    cases b with
    | device b => have hb := rank_device_lt b; omega
    | syscall b => exact congrArg syscall (UInt32.toNat_inj.mp (Nat.add_left_cancel h))
    | group b => have hb := le_rank_group b; omega
  | group a =>
    have ha := le_rank_group a
    cases b with
    | device b => have hb := rank_device_lt b; omega
    | syscall b => have hb := rank_syscall_bounds b; omega
    | group b => exact congrArg group (UInt16.toNat_inj.mp (Nat.add_left_cancel h))

theorem precedes_of_rank_le {a b : EntityKey} (hle : a.rank ≤ b.rank) (hne : a ≠ b) :
    a.Precedes b := by
  have hranks : a.rank ≠ b.rank := fun h => hne (rank_injective h)
  rw [← rank_lt_iff]
  omega

end EntityKey

variable {γ : Type}

namespace Snapshot

def keys (s : Snapshot γ) : List EntityKey := s.entities.map (·.1)

theorem get?_eq_some_iff {s : Snapshot γ} (hs : s.keys.Nodup) (key : EntityKey)
    (e : EntityStats γ) : s.get? key = some e ↔ (key, e) ∈ s.entities := by
  obtain ⟨_, _, _, _, entities⟩ := s
  simp only [keys, get?] at hs ⊢
  induction entities with
  | nil => simp
  | cons head tail ih =>
    obtain ⟨k, s⟩ := head
    obtain ⟨hhead, htail⟩ := List.nodup_cons.mp hs
    rw [List.find?_cons, List.mem_cons, Prod.mk.injEq]
    by_cases hk : k = key
    · subst k
      have habsent : (key, e) ∉ tail := fun hm => hhead (List.mem_map.mpr ⟨(key, e), hm, rfl⟩)
      simp [habsent, eq_comm]
    · simp [hk, ih htail, Ne.symm hk]

end Snapshot

namespace Registry

theorem snapshot_perm (r : Registry γ) (now : Instant) :
    ((r.snapshot now).entities).Perm (r.slots.toList.map fun (k, s) => (k, s.snapshot)) :=
  List.mergeSort_perm _ _

theorem keys_snapshot_perm (r : Registry γ) (now : Instant) :
    (r.snapshot now).keys.Perm r.keys := by
  have h := (snapshot_perm r now).map (·.1)
  rw [List.map_map] at h
  exact h

theorem keys_snapshot_ascending {r : Registry γ} (h : r.Indexed) (now : Instant) :
    (r.snapshot now).keys.Pairwise EntityKey.Precedes := by
  let le (a b : EntityKey × EntityStats γ) : Bool := a.1.rank ≤ b.1.rank
  have htrans : ∀ a b c, le a b = true → le b c = true → le a c = true := by
    intro a b c
    simp only [le, decide_eq_true_eq]
    omega
  have htotal : ∀ a b, (le a b || le b a) = true := by
    intro a b
    simp only [le, Bool.or_eq_true, decide_eq_true_eq]
    omega
  have hsorted := List.pairwise_mergeSort htrans htotal
    (r.slots.toList.map fun (k, s) => (k, s.snapshot))
  have hranks : (r.snapshot now).keys.Pairwise fun a b => a.rank ≤ b.rank :=
    List.pairwise_map.mpr (hsorted.imp of_decide_eq_true)
  have hnodup : (r.snapshot now).keys.Nodup := (keys_snapshot_perm r now).nodup_iff.mpr h.keys_nodup
  exact (hranks.and hnodup).imp fun hab => EntityKey.precedes_of_rank_le hab.1 hab.2

theorem get?_snapshot {r : Registry γ} (h : r.Indexed) (now : Instant) (key : EntityKey) :
    (r.snapshot now).get? key = (r.stats? key).map (·.snapshot) := by
  have hnodup : (r.snapshot now).keys.Nodup := (keys_snapshot_perm r now).nodup_iff.mpr h.keys_nodup
  apply Option.ext
  intro e
  rw [Snapshot.get?_eq_some_iff hnodup, (snapshot_perm r now).mem_iff, List.mem_map,
    Option.map_eq_some_iff]
  constructor
  · rintro ⟨⟨k, s⟩, hm, he⟩
    obtain ⟨rfl, rfl⟩ := Prod.mk.inj he
    exact ⟨s, (h.stats?_eq_some_iff k s).mpr hm, rfl⟩
  · rintro ⟨s, hs, rfl⟩
    exact ⟨(key, s), (h.stats?_eq_some_iff key s).mp hs, rfl⟩

theorem totalCount_snapshot (r : Registry γ) (now : Instant) :
    (r.snapshot now).totalCount = r.totalCount := by
  have h := ((snapshot_perm r now).map fun e => e.2.totalCount).sum_nat
  rw [List.map_map] at h
  rw [Snapshot.totalCount, totalCount_eq_sum, ← List.foldl_map, ← List.sum_eq_foldl]
  exact h

end Registry

end QuantileMonitor
