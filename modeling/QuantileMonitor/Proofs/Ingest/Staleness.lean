import QuantileMonitor.Proofs.Ingest.Batching
import QuantileMonitor.Proofs.Registry.Isolation

/-!
# Bounded staleness

A batch turns pushes and flushes into calls that record several samples. What these calls recorded,
followed by what waits, is what was pushed, so the registry lags behind by what waits: by nothing during
warm-up and by less than one batch afterwards.
-/

namespace QuantileMonitor.Ingest

open Quantile
open Registry (recorded)

variable {γ : Type} [Draws γ]

def Feed.pushed : Feed → List Sample
  | push s => [s]
  | flush => []
  | reset _ => []

def pushed (feed : List Feed) : List Sample := feed.flatMap Feed.pushed

theorem pushed_concat (feed : List Feed) (f : Feed) :
    pushed (feed ++ [f]) = pushed feed ++ f.pushed := by
  rw [pushed, List.flatMap_append, List.flatMap_singleton, pushed]

namespace Batch

def calls (b : Batch) : Feed → List Registry.Call
  | .push s => if b.Due then [.recordAll (b.holding s).waiting.toList] else []
  | .flush => if b.waiting = #[] then [] else [.recordAll b.waiting.toList]
  | .reset now => [.resetIntervals now]

theorem push_iff_pending (b : Batch) (s : Sample) (r : Registry γ) :
    (b.push s r).1 = true ↔ (b.push s r).2.1.pending = 0 := by
  by_cases h : b.Due
  · rw [push_of_due h]
    exact iff_of_true rfl rfl
  · simp [push_of_not_due h, holding_pending]

inductive Turn (b : Batch) (r : Registry γ) :
    Feed → List Registry.Call → Batch × Registry γ → Prop
  | due {s : Sample} (hdue : b.Due) :
      Turn b r (.push s) [.recordAll (b.holding s).waiting.toList]
        ({ b.emptied with warmupLeft := b.warmupLeft - 1 }, (b.holding s).settled r)
  | room {s : Sample} (hdue : ¬ b.Due) : Turn b r (.push s) [] (b.holding s, r)
  | idle (hwaiting : b.waiting = #[]) : Turn b r .flush [] (b, r)
  | flush (hwaiting : b.waiting ≠ #[]) :
      Turn b r .flush [.recordAll b.waiting.toList] (b.emptied, b.settled r)
  | reset (now : Instant) :
      Turn b r (.reset now) [.resetIntervals now] (b, r.resetIntervals now)

end Batch

theorem batched_turn (b : Batch) (r : Registry γ) (f : Feed) :
    b.Turn r f (b.calls f) (batched (b, r) f) := by
  cases f with
  | push s =>
    by_cases hdue : b.Due
    · rw [batched, Batch.push_of_due hdue, Batch.calls, if_pos hdue]
      exact .due hdue
    · rw [batched, Batch.push_of_not_due hdue, Batch.calls, if_neg hdue]
      exact .room hdue
  | flush =>
    by_cases hwaiting : b.waiting = #[]
    · rw [batched, Batch.flush_of_empty hwaiting, Batch.calls, if_pos hwaiting]
      exact .idle hwaiting
    · rw [batched, Batch.flush_of_ne_empty hwaiting, Batch.calls, if_neg hwaiting]
      exact .flush hwaiting
  | reset now => exact .reset now

def calls : Batch × Registry γ → List Feed → List Registry.Call
  | _, [] => []
  | z, f :: feed => z.1.calls f ++ calls (batched z f) feed

section Turns

variable {b : Batch} {r : Registry γ} {f : Feed} {made : List Registry.Call}
  {z z' : Batch × Registry γ} {feed : List Feed} {c : Registry.Call}

theorem mem_calls (h : c ∈ calls z feed) :
    ∃ f ∈ feed, ∃ (b : Batch) (r : Registry γ) (made : List Registry.Call)
      (z' : Batch × Registry γ), b.Turn r f made z' ∧ c ∈ made := by
  induction feed generalizing z with
  | nil => cases h
  | cons f feed ih =>
    rcases List.mem_append.mp h with h | h
    · exact ⟨f, List.mem_cons_self, _, _, _, _, batched_turn z.1 z.2 f, h⟩
    · obtain ⟨g, hg, hturn⟩ := ih h
      exact ⟨g, List.mem_cons_of_mem f hg, hturn⟩

theorem keys_of_mem_calls (h : c ∈ calls z feed) : c.keys = c.samples.map (·.entity) := by
  obtain ⟨f, -, b, r, made, z', hturn, hc⟩ := mem_calls h
  cases hturn with
  | due => rw [List.mem_singleton.mp hc]; rfl
  | room => cases hc
  | idle => cases hc
  | flush => rw [List.mem_singleton.mp hc]; rfl
  | reset now => rw [List.mem_singleton.mp hc]; rfl

theorem reset_of_mem_calls {now : Instant} (h : .resetIntervals now ∈ calls z feed) :
    .reset now ∈ feed := by
  obtain ⟨f, hf, b, r, made, z', hturn, hc⟩ := mem_calls h
  cases hturn with
  | due => simp at hc
  | room => cases hc
  | idle => cases hc
  | flush => simp at hc
  | reset later =>
    obtain ⟨⟩ := List.mem_singleton.mp hc
    exact hf

theorem totalCount_settled (h : r.Indexed) (b : Batch) :
    (b.settled r).totalCount = r.totalCount + b.pending := by
  rw [Batch.settled, Registry.totalCount_recordAll h, Array.length_toList]
  rfl

theorem flushes_of_turn (h : r.Indexed) (hturn : b.Turn r f made z') :
    z'.1.flushes = b.flushes + if z'.2.totalCount = r.totalCount then 0 else 1 := by
  have hgrows : ∀ b' : Batch, b'.waiting ≠ #[] → (b'.settled r).totalCount ≠ r.totalCount := by
    intro b' hwaiting
    have hpos : 0 < b'.pending := Array.size_pos_iff.mpr hwaiting
    rw [totalCount_settled h]
    omega
  cases hturn with
  | @due s =>
    rw [if_neg (hgrows (b.holding s) (b.holding_ne_empty s))]
    rfl
  | room => simp [Batch.holding]
  | idle => simp
  | flush hwaiting =>
    rw [if_neg (hgrows b hwaiting)]
    rfl
  | reset now => simp [Registry.totalCount_resetIntervals]

end Turns

/-- The calls made on a registry recorded the samples pushed, up to those that wait. -/
structure Account (r : Registry γ) (made : List Registry.Call) (samples : List Sample)
    (z : Batch × Registry γ) : Prop where
  registry : z.2 = r.run made
  order : recorded made ++ z.1.waiting.toList = samples
  flushes : z.1.flushes = made.countP (·.samples ≠ [])

section Account

variable {r : Registry γ} {made : List Registry.Call} {samples : List Sample}
  {z : Batch × Registry γ}

theorem empty_account (flushEvery warmup : Nat) (r : Registry γ) :
    Account r [] [] (.empty flushEvery warmup, r) := ⟨rfl, rfl, rfl⟩

theorem Account.length (h : Account r made samples z) :
    (recorded made).length + z.1.pending = samples.length := by
  rw [← h.order, List.length_append, Array.length_toList]
  rfl

theorem Account.holding (h : Account r made samples z) (s : Sample) :
    Account r made (samples ++ [s]) (z.1.holding s, z.2) where
  registry := h.registry
  order := by rw [← h.order, Batch.holding, Array.toList_push, List.append_assoc]
  flushes := h.flushes

theorem Account.emptied (h : Account r made samples z) (hne : z.1.waiting ≠ #[]) :
    Account r (made ++ [.recordAll z.1.waiting.toList]) samples
      (z.1.emptied, z.1.settled z.2) where
  registry := by
    rw [Registry.run_append, ← h.registry]
    rfl
  order := by
    rw [← h.order]
    simp [recorded, Registry.Call.samples, Batch.emptied]
  flushes := by
    have hsome : z.1.waiting.toList ≠ [] := by simpa using hne
    rw [List.countP_append, ← h.flushes]
    simp [Registry.Call.samples, Batch.emptied, hsome]

theorem Account.reset (h : Account r made samples z) (now : Instant) :
    Account r (made ++ [.resetIntervals now]) samples (z.1, z.2.resetIntervals now) where
  registry := by
    rw [Registry.run_append, ← h.registry]
    rfl
  order := by
    rw [← h.order]
    simp [recorded, Registry.Call.samples]
  flushes := by
    rw [List.countP_append, ← h.flushes]
    simp [Registry.Call.samples]

theorem Account.turn (h : Account r made samples z) {f : Feed} {more : List Registry.Call}
    {z' : Batch × Registry γ} (hturn : z.1.Turn z.2 f more z') :
    Account r (made ++ more) (samples ++ f.pushed) z' := by
  cases hturn with
  | due =>
    -- The countdown is no part of the account.
    obtain ⟨hregistry, horder, hflushes⟩ := (h.holding _).emptied (z.1.holding_ne_empty _)
    exact ⟨hregistry, horder, hflushes⟩
  | room => simpa [Feed.pushed] using h.holding _
  | idle => simpa [Feed.pushed] using h
  | flush hwaiting => simpa [Feed.pushed] using h.emptied hwaiting
  | reset now => simpa [Feed.pushed] using h.reset now

theorem Account.run (h : Account r made samples z) (feed : List Feed) :
    Account r (made ++ calls z feed) (samples ++ pushed feed) (feed.foldl batched z) := by
  induction feed generalizing made samples z with
  | nil => simpa [calls, pushed] using h
  | cons f feed ih => simpa [calls, pushed] using ih (h.turn (batched_turn z.1 z.2 f))

end Account

structure Bounded (flushEvery warmup n : Nat) (b : Batch) : Prop where
  flushEvery : b.flushEvery = max 1 flushEvery
  warmupLeft : b.warmupLeft = warmup - n
  room : b.pending < b.flushEvery
  late : b.pending ≤ n - warmup
  early : n ≤ warmup → b.flushes = n

section Bounded

variable {flushEvery warmup n : Nat} {b : Batch} {r : Registry γ} {f : Feed}
  {made : List Registry.Call} {z' : Batch × Registry γ}

theorem empty_bounded (flushEvery warmup : Nat) :
    Bounded flushEvery warmup 0 (.empty flushEvery warmup) where
  flushEvery := Nat.max_comm flushEvery 1
  warmupLeft := rfl
  room := Nat.lt_of_lt_of_le Nat.one_pos (Nat.le_max_right flushEvery 1)
  late := Nat.zero_le _
  early _ := rfl

theorem Bounded.inWarmup_iff (h : Bounded flushEvery warmup n b) :
    b.inWarmup = true ↔ n < warmup := by
  rw [Batch.inWarmup, decide_eq_true_iff, h.warmupLeft]
  exact Nat.sub_pos_iff_lt

theorem Bounded.emptied (h : Bounded flushEvery warmup n b) {left k : Nat}
    (hleft : left = warmup - k) (hearly : k ≤ warmup → b.flushes + 1 = k) :
    Bounded flushEvery warmup k { b.emptied with warmupLeft := left } where
  flushEvery := h.flushEvery
  warmupLeft := hleft
  room := Nat.zero_lt_of_lt h.room
  late := Nat.zero_le _
  early := hearly

theorem Bounded.holding (h : Bounded flushEvery warmup n b) (hdue : ¬ b.Due) (s : Sample) :
    Bounded flushEvery warmup (n + 1) (b.holding s) := by
  obtain ⟨hw, hroom⟩ := not_or.mp hdue
  have hleft := h.warmupLeft
  have hlate := h.late
  have hpending := b.holding_pending s
  constructor
  case flushEvery => exact h.flushEvery
  case warmupLeft =>
    have hnone : b.warmupLeft = warmup - (n + 1) := by omega
    exact hnone
  case room => exact hpending ▸ Nat.lt_of_not_le hroom
  case late => omega
  case early => omega

theorem Bounded.turn (h : Bounded flushEvery warmup n b) (hturn : b.Turn r f made z') :
    Bounded flushEvery warmup (n + f.pushed.length) z'.1 := by
  have hleft := h.warmupLeft
  have hlate := h.late
  cases hturn with
  | due =>
    have hone : b.warmupLeft - 1 = warmup - (n + 1) := by omega
    exact h.emptied hone fun hle => congrArg (· + 1) (h.early (Nat.le_of_succ_le hle))
  | room hdue => exact h.holding hdue _
  | idle => exact h
  | flush hwaiting =>
    have hpos : 0 < b.pending := Array.size_pos_iff.mpr hwaiting
    have hearly : n ≤ warmup → b.flushes + 1 = n := by omega
    exact h.emptied hleft hearly
  | reset now => exact h

theorem Bounded.run (h : Bounded flushEvery warmup n b) (r : Registry γ) (feed : List Feed) :
    Bounded flushEvery warmup (n + (pushed feed).length) (feed.foldl batched (b, r)).1 := by
  induction feed generalizing n b r with
  | nil => exact h
  | cons f feed ih =>
    rw [pushed, List.flatMap_cons, List.length_append, ← Nat.add_assoc]
    exact ih (h.turn (batched_turn b r f)) _

/-- Each sample of the warm-up had a flush of its own, and of the later ones each full batch had. -/
def Paced (warmup n : Nat) (b : Batch) : Prop :=
  ∃ batches, b.flushes = min n warmup + batches ∧
    n - warmup = b.flushEvery * batches + b.pending

theorem empty_paced (flushEvery warmup : Nat) : Paced warmup 0 (.empty flushEvery warmup) :=
  ⟨0, (Nat.zero_min warmup).symm, Nat.zero_sub warmup⟩

theorem Paced.turn (hp : Paced warmup n b) (h : Bounded flushEvery warmup n b)
    (hturn : b.Turn r f made z') (hf : f ≠ .flush) : Paced warmup (n + f.pushed.length) z'.1 := by
  obtain ⟨batches, hflushes, hlater⟩ := hp
  have hleft := h.warmupLeft
  have hroom := h.room
  have hlate := h.late
  cases hturn with
  | due hdue =>
    by_cases hw : 0 < b.warmupLeft
    · -- The sample counts towards the warm-up, and no batch is open yet.
      have hcount : b.flushes + 1 = min (n + 1) warmup + batches := by omega
      have hrest : n + 1 - warmup = b.flushEvery * batches + 0 := by omega
      exact ⟨batches, hcount, hrest⟩
    · have hfull := hdue.resolve_left hw
      have hcount : b.flushes + 1 = min (n + 1) warmup + (batches + 1) := by omega
      have hrest : n + 1 - warmup = b.flushEvery * (batches + 1) + 0 := by
        rw [Nat.mul_succ]
        omega
      exact ⟨batches + 1, hcount, hrest⟩
  | @room s hdue =>
    obtain ⟨hw, -⟩ := not_or.mp hdue
    have hcount : b.flushes = min (n + 1) warmup + batches := by omega
    have hrest : n + 1 - warmup = b.flushEvery * batches + (b.pending + 1) := by omega
    rw [← b.holding_pending s] at hrest
    exact ⟨batches, hcount, hrest⟩
  | idle => exact absurd rfl hf
  | flush => exact absurd rfl hf
  | reset now => exact ⟨batches, hflushes, hlater⟩

theorem Paced.run (hp : Paced warmup n b) (h : Bounded flushEvery warmup n b) (r : Registry γ)
    {feed : List Feed} (hfeed : Feed.flush ∉ feed) :
    Paced warmup (n + (pushed feed).length) (feed.foldl batched (b, r)).1 := by
  induction feed generalizing n b r with
  | nil => exact hp
  | cons f feed ih =>
    rw [List.mem_cons, not_or] at hfeed
    obtain ⟨hf, hrest⟩ := hfeed
    have hturn := batched_turn b r f
    rw [pushed, List.flatMap_cons, List.length_append, ← Nat.add_assoc]
    exact ih (hp.turn h hturn (Ne.symm hf)) (h.turn hturn) _ hrest

theorem Paced.figures (hp : Paced warmup n b) (h : Bounded flushEvery warmup n b) :
    b.flushes = min n warmup + (n - warmup) / max 1 flushEvery ∧
      b.pending = (n - warmup) % max 1 flushEvery := by
  obtain ⟨batches, hflushes, hlater⟩ := hp
  rw [Nat.add_comm] at hlater
  obtain ⟨hdiv, hmod⟩ := (Nat.div_mod_unique (Nat.zero_lt_of_lt h.room)).mpr ⟨hlater.symm, h.room⟩
  rw [← h.flushEvery, hdiv, hmod]
  exact ⟨hflushes, rfl⟩

end Bounded

/-- Whatever happened to the registry before, what the batch had recorded there followed by what waits
is what was pushed, in that order. Nothing waits during warm-up and less than one batch afterwards, a
push tells whether something is left to wait, and flushes are counted when they record something. -/
theorem staleness_bounded (strategy : Strategy) (draws : EntityKey → γ × γ) (start : Instant)
    (earlier : List Registry.Call) (flushEvery warmup : Nat) (feed : List Feed) :
    let r := (Registry.empty strategy draws start).run earlier
    let first := (Batch.empty flushEvery warmup, r)
    let made := calls first feed
    let z := feed.foldl batched first
    let n := (pushed feed).length
    let w := min n warmup
    let size := max 1 flushEvery
    (z.2 = r.run made ∧ recorded made ++ z.1.waiting.toList = pushed feed) ∧
      z.1.pending < size ∧ (z.1.inWarmup = true → z.1.pending = 0) ∧
      (∀ s, (z.1.push s z.2).1 = true ↔ (z.1.push s z.2).2.1.pending = 0) ∧
      z.1.flushes = made.countP (·.samples ≠ []) ∧
      (∀ f, (batched z f).1.flushes =
        z.1.flushes + if (batched z f).2.totalCount = z.2.totalCount then 0 else 1) ∧
      (Feed.flush ∉ feed → z.1.flushes = w + (n - w) / size ∧ z.1.pending = (n - w) % size) := by
  intro r first made z n w size
  have haccount : Account r made (pushed feed) z := (empty_account flushEvery warmup r).run feed
  have hempty := empty_bounded flushEvery warmup
  have hbounded : Bounded flushEvery warmup n z.1 := Nat.zero_add n ▸ hempty.run r feed
  have hindexed : z.2.Indexed := by
    rw [haccount.registry]
    exact Registry.run_indexed
      (Registry.run_indexed (Registry.empty_indexed strategy draws start) earlier) made
  refine ⟨⟨haccount.registry, haccount.order⟩, Nat.lt_of_lt_of_eq hbounded.room hbounded.flushEvery,
    fun hwarm => ?_, fun s => z.1.push_iff_pending s z.2, haccount.flushes,
    fun f => flushes_of_turn hindexed (batched_turn z.1 z.2 f), fun hnone => ?_⟩
  · have hlate := hbounded.late
    have hn := hbounded.inWarmup_iff.mp hwarm
    omega
  · have hpaced : Paced warmup n z.1 :=
      Nat.zero_add n ▸ (empty_paced flushEvery warmup).run hempty r hnone
    have hw : n - w = n - warmup := by omega
    rw [hw]
    exact hpaced.figures hbounded

end QuantileMonitor.Ingest
